import Mathlib.Data.List.ReduceOption
import MempoolObserver.Services.Confirmation

/-!
# The split of mined clusters

A block splits each active cluster it mined something of: what it mined stays with
the cluster, which ends confirmed, and the rest goes to the node. A chunk that is
mined whole stays as it is, and of a chunk mined in part the block itself says what
the mined part is worth.

## Main definitions

* `ChunkSplit` — what a block leaves of one chunk
* `MinedSplit` — what a block leaves of a cluster

## Main results

* `mined_clusters_split` — every cluster with a member in the block is split, and the
  others are changed by the re-sync only
-/

namespace MempoolObserver

open Relation Collections

/-! ### The split of chunks -/

/-- What a block leaves of one chunk. -/
inductive ChunkSplit (block : MinedBlock) (chunk : ClusterChunk) : Option ClusterChunk → Prop
  | whole (mined : ∀ txid ∈ chunk.txids, txid ∈ block.txids) : ChunkSplit block chunk (some chunk)
  /-- The mined part is valued by the block. -/
  | part {txids : List Txid} (mined : txids = chunk.txids.filter (· ∈ block.txids))
      (some_ : txids ≠ []) (pending : ∃ txid ∈ chunk.txids, txid ∉ block.txids) :
      ChunkSplit block chunk (some ⟨txids, (txids.filterMap block.fees).sum.toUInt64,
        (txids.filterMap block.weights).sum.toUInt64⟩)
  | none (pending : ∃ txid ∈ chunk.txids, txid ∉ block.txids)
      (unmined : ∀ txid ∈ chunk.txids, txid ∉ block.txids) : ChunkSplit block chunk none

/-- What a block leaves of a cluster it mined something of. -/
structure MinedSplit (block : MinedBlock) (before after : Cluster) : Prop where
  status : after.status = .confirmed
  confirmedAt : after.confirmedAt = some block.confirmedAt
  /-- Each chunk is split by itself, and the chunks stay in order. -/
  chunks : ∃ parts, List.Forall₂ (ChunkSplit block) before.chunks parts ∧
    after.chunks = parts.reduceOption
  txids : after.txids = before.txids.filter (· ∈ block.txids)
  /-- A chunk is empty only if it was before. -/
  nonempty : ∀ chunk ∈ after.chunks, chunk.txids = [] → chunk ∈ before.chunks
  sums : (⟨after.totalWeight, after.totalFee⟩ : ChunkSums) = totals after.chunks

section Chunks

variable {block : MinedBlock} {chunk : ClusterChunk} {part : Option ClusterChunk}

theorem chunkSplit_minedPart (block : MinedBlock) (chunk : ClusterChunk) :
    ChunkSplit block chunk (MinedTrim.minedPart block chunk) := by
  unfold MinedTrim.minedPart
  dsimp only
  split_ifs with whole mined
  · apply ChunkSplit.whole
    intro txid member
    by_contra pending
    exact (List.filter_eq_nil_iff.mp whole txid member) (by simpa using pending)
  · apply ChunkSplit.part rfl mined
    obtain ⟨txid, left⟩ := List.exists_mem_of_ne_nil _ whole
    obtain ⟨member, pending⟩ := List.mem_filter.mp left
    exact ⟨txid, member, by simpa using pending⟩
  · have unmined := List.filter_eq_nil_iff.mp (not_not.mp mined)
    obtain ⟨txid, left⟩ := List.exists_mem_of_ne_nil _ whole
    obtain ⟨member, pending⟩ := List.mem_filter.mp left
    exact ChunkSplit.none ⟨txid, member, by simpa using pending⟩
      fun other inChunk => by simpa using unmined other inChunk

/-- The mined part of a chunk has its mined txids, in order. -/
theorem ChunkSplit.txids (split : ChunkSplit block chunk part) :
    part.toList.flatMap ClusterChunk.txids = chunk.txids.filter (· ∈ block.txids) := by
  cases split with
  | whole mined =>
    have all : chunk.txids.filter (· ∈ block.txids) = chunk.txids :=
      List.filter_eq_self.mpr fun txid member => by simpa using mined txid member
    simp [all]
  | part mined => simp [mined]
  | none pending unmined =>
    have nobody : chunk.txids.filter (· ∈ block.txids) = [] :=
      List.filter_eq_nil_iff.mpr fun txid member => by simpa using unmined txid member
    simp [nobody]

/-- The split cuts no chunk to nothing. -/
theorem ChunkSplit.eq_of_empty {result : ClusterChunk}
    (split : ChunkSplit block chunk (some result))
    (empty : result.txids = []) : result = chunk := by
  cases split with
  | whole mined => rfl
  | part mined some_ pending => exact absurd empty some_

theorem txids_filterMap_minedPart (block : MinedBlock) (chunks : List ClusterChunk) :
    (chunks.filterMap (MinedTrim.minedPart block)).flatMap ClusterChunk.txids =
      (chunks.flatMap ClusterChunk.txids).filter (· ∈ block.txids) := by
  induction chunks with
  | nil => rfl
  | cons chunk chunks ih =>
    have first := (chunkSplit_minedPart block chunk).txids
    rw [List.flatMap_cons, List.filter_append, ← first, ← ih, List.filterMap_cons]
    cases MinedTrim.minedPart block chunk <;> simp

theorem forall₂_minedPart (block : MinedBlock) (chunks : List ClusterChunk) :
    List.Forall₂ (ChunkSplit block) chunks (chunks.map (MinedTrim.minedPart block)) := by
  induction chunks with
  | nil => exact .nil
  | cons chunk chunks ih => exact .cons (chunkSplit_minedPart block chunk) ih

/-- A cluster that ends with the mined parts of its chunks is split. -/
theorem MinedSplit.of_chunks {before after : Cluster} (status : after.status = .confirmed)
    (confirmedAt : after.confirmedAt = some block.confirmedAt)
    (chunks : after.chunks = before.chunks.filterMap (MinedTrim.minedPart block))
    (sums : (⟨after.totalWeight, after.totalFee⟩ : ChunkSums) = totals after.chunks) :
    MinedSplit block before after where
  status := status
  confirmedAt := confirmedAt
  chunks := by
    refine ⟨_, forall₂_minedPart block before.chunks, ?_⟩
    rw [chunks]
    exact (List.filterMap_map (f := MinedTrim.minedPart block) (g := id)).symm
  -- The parts concatenate to the mined txids of the old chunks, in their order.
  txids := by
    rw [Cluster.txids, chunks, txids_filterMap_minedPart]
    rfl
  nonempty := by
    intro chunk member empty
    rw [chunks] at member
    -- A chunk never comes out empty, unless it was empty before.
    obtain ⟨old, listed, mined⟩ := List.mem_filterMap.mp member
    have split := chunkSplit_minedPart block old
    rw [mined] at split
    rw [split.eq_of_empty empty]
    exact listed
  sums := sums

/-- Of a cluster mined whole every chunk is. -/
theorem filterMap_minedPart_of_isFull {cluster : Cluster}
    (full : ClusterService.isFull block cluster = true) :
    cluster.chunks.filterMap (MinedTrim.minedPart block) = cluster.chunks := by
  have mined : ∀ txid ∈ cluster.txids, txid ∈ block.txids := by
    simpa [ClusterService.isFull] using full
  have each : ∀ chunk ∈ cluster.chunks, MinedTrim.minedPart block chunk = some chunk := by
    intro chunk member
    have nobody : chunk.txids.filter (· ∉ block.txids) = [] := by
      apply List.filter_eq_nil_iff.mpr
      intro txid inChunk
      simpa using mined txid (List.mem_flatMap.mpr ⟨chunk, member, inChunk⟩)
    unfold MinedTrim.minedPart
    exact if_pos nobody
  rw [List.filterMap_congr each, List.filterMap_some]

/-- Of a cluster mined in part some chunk is cut. -/
theorem filterMap_minedPart_ne {cluster : Cluster}
    (partly : ClusterService.isFull block cluster = false) :
    cluster.chunks.filterMap (MinedTrim.minedPart block) ≠ cluster.chunks := by
  intro same
  have kept : cluster.txids.filter (· ∈ block.txids) = cluster.txids := by
    have split := txids_filterMap_minedPart block cluster.chunks
    rw [same] at split
    exact split.symm
  have mined := List.filter_eq_self.mp kept
  have full : ClusterService.isFull block cluster = true := List.all_eq_true.mpr mined
  rw [partly] at full
  cases full

end Chunks

/-! ### The split in the store -/

namespace Db

variable {db mid next : Db} {now : Txid → OffsetDateTime} {updates : List ClusterVersionUpdate}

/-- A stored cluster with the chunks of its current version. -/
def loaded (db : Db) (id : ClusterId) : Option Cluster :=
  (db.clusters id).map fun row => .fromRow id row (db.loadChunks id row.version)

theorem loadChunks_congr {id : ClusterId} (chunks : next.chunksOf id = db.chunksOf id)
    (version : ℕ) : next.loadChunks id version = db.loadChunks id version := by
  rw [loadChunks, loadChunks, chunks]

theorem loaded_congr {id : ClusterId} (clusters : next.clusters id = db.clusters id)
    (chunks : next.chunksOf id = db.chunksOf id) : next.loaded id = db.loaded id := by
  simp only [loaded, clusters, loadChunks_congr chunks]

/-- A closed cluster is loaded as it was closed. -/
theorem KeepsClosed.loaded_eq (keeps : KeepsClosed db next) {id : ClusterId} {cluster : Cluster}
    (found : db.loaded id = some cluster) (closed : cluster.status ≠ .active) :
    next.loaded id = some cluster := by
  obtain ⟨row, stored, rfl⟩ := Option.map_eq_some_iff.mp found
  obtain ⟨kept, chunks⟩ := keeps id row stored closed
  rw [loaded_congr (kept.trans stored.symm) chunks, found]

/-- The totals of a stored cluster are those of its current chunks. -/
theorem Versioned.totals_loadChunks (inv : Versioned db) {id : ClusterId} {row : ClusterRow}
    (stored : db.clusters id = some row) :
    totals (db.loadChunks id row.version) = ⟨row.totalWeight, row.totalFee⟩ := by
  have ok := inv.stored stored
  rw [inv.loadChunks_eq, totals, List.map_map, List.map_map, ok.totalWeight, ok.totalFee]
  simp [Function.comp_def, ClusterChunkRow.chunk]

/-- A version the store can put on top of a cluster. -/
structure Trimmable (db : Db) (update : ClusterVersionUpdate) (old : ClusterRow) : Prop where
  stored : db.clusters update.clusterId = some old
  active : old.status = .active
  differs : db.loadChunks update.clusterId old.version ≠ update.chunks
  unwritten : db.chunksOf update.clusterId (old.version + 1) = []

/-- What trimming some clusters, each once, leaves before they are confirmed. -/
structure TrimsEach (db : Db) (updates : List ClusterVersionUpdate) (mid : Db) : Prop where
  clusterSeq : mid.clusterSeq = db.clusterSeq
  trimmed : ∀ update ∈ updates, ∀ old, db.clusters update.clusterId = some old →
    mid.clusters update.clusterId = some (update.row old) ∧
      mid.chunksOf update.clusterId (old.version + 1) =
        chunkRows update.clusterId (old.version + 1) update.chunks false
  others : ∀ id, id ∉ updates.map ClusterVersionUpdate.clusterId →
    mid.clusters id = db.clusters id ∧ mid.chunksOf id = db.chunksOf id

theorem trimsEach_of_foldlM (nodup : (updates.map ClusterVersionUpdate.clusterId).Nodup)
    (trimmable : ∀ update ∈ updates, ∃ old, db.Trimmable update old)
    (folded : updates.foldlM (fun db update =>
      (replaceChunksIn now update false db).map Prod.snd) db = some mid) :
    TrimsEach db updates mid := by
  -- Induction over the updates: distinct ids, so no rewrite touches a later cluster.
  induction updates generalizing db with
  | nil =>
    cases folded
    exact ⟨rfl, by simp, fun _ _ => ⟨rfl, rfl⟩⟩
  | cons update updates ih =>
    obtain ⟨fresh, nodup⟩ := List.nodup_cons.mp nodup
    obtain ⟨first, stepped, folded⟩ := Option.bind_eq_some_iff.mp folded
    obtain ⟨⟨cluster, _⟩, replaced, rfl⟩ := Option.map_eq_some_iff.mp stepped
    obtain ⟨old, this⟩ := trimmable update List.mem_cons_self
    obtain ⟨row, stored, ⟨asIs, -⟩ | ⟨-, -, rep⟩⟩ := replaceChunksIn_cases replaced
    -- A trimmable cluster is active and differs from its update, so it is rewritten.
    · obtain rfl : old = row := Option.some.inj (this.stored.symm.trans stored)
      exact absurd asIs (not_or.mpr ⟨not_not.mpr this.active, this.differs⟩)
    obtain rfl : old = row := Option.some.inj (this.stored.symm.trans stored)
    have other : ∀ later ∈ updates, later.clusterId ≠ update.clusterId := by
      intro later member same
      exact fresh (same ▸ List.mem_map_of_mem member)
    have later := ih nodup (fun later member => ?_) folded
    · constructor
      · exact later.clusterSeq.trans rep.clusterSeq
      · intro written member row present
        -- The cluster written first is spared by the rest of the updates.
        rcases List.mem_cons.mp member with rfl | inRest
        · obtain rfl : old = row := Option.some.inj (stored.symm.trans present)
          obtain ⟨clusters, chunks⟩ := later.others _ fresh
          rw [clusters, chunks, rep.clusters_self, rep.chunksOf, this.unwritten]
          simp
        · apply later.trimmed written inRest row
          rw [rep.clusters_other (other written inRest), present]
      · intro id absent
        obtain ⟨differs, inRest⟩ := not_or.mp (mt List.mem_cons.mpr absent)
        obtain ⟨clusters, chunks⟩ := later.others id inRest
        exact ⟨clusters.trans (rep.clusters_other differs),
          chunks.trans (rep.chunksOf_other differs)⟩
    · obtain ⟨row, before⟩ := trimmable later (List.mem_cons_of_mem update member)
      have clusters := rep.clusters_other (other later member)
      have chunks := rep.chunksOf_other (other later member)
      refine ⟨row, clusters.trans before.stored, before.active, ?_, ?_⟩
      · rw [loadChunks_congr chunks]
        exact before.differs
      · rw [chunks]
        exact before.unwritten

/-- Confirming clusters leaves the others alone. -/
theorem others_confirmManyIn (db : Db) (closedAt confirmedAt : OffsetDateTime)
    {ids : List ClusterId}
    {id : ClusterId} (absent : id ∉ ids) :
    (db.confirmManyIn closedAt ids confirmedAt).2.clusters id = db.clusters id ∧
      (db.confirmManyIn closedAt ids confirmedAt).2.chunksOf id = db.chunksOf id := by
  have ends := ends_confirmManyIn closedAt ids confirmedAt db
  have kept : id ∉ db.activeAmong ids := fun member =>
    absent (isActive_of_mem_activeAmong member).1
  constructor
  · rw [ends.clusters, if_neg kept]
  · funext version
    rw [ends.chunksOf, if_neg kept]

/-- What trimming some clusters and confirming them leaves. -/
structure SplitsEach (db : Db) (updates : List ClusterVersionUpdate)
    (closedAt confirmedAt : OffsetDateTime) (next : Db) : Prop where
  split : ∀ update ∈ updates, ∀ old, db.clusters update.clusterId = some old →
    next.loaded update.clusterId = some (.fromRow update.clusterId
      { update.row old with
        confirmedAt := some confirmedAt, status := .confirmed, closedAt := some closedAt }
      update.chunks)
  others : ∀ id, id ∉ updates.map ClusterVersionUpdate.clusterId →
    next.clusters id = db.clusters id ∧ next.chunksOf id = db.chunksOf id

theorem splitsEach_trimAndConfirmMany {closedAt confirmedAt : OffsetDateTime} {count : ℕ}
    (allocated : ∀ {id}, db.clusterSeq ≤ id → db.clusters id = none)
    (nodup : (updates.map ClusterVersionUpdate.clusterId).Nodup)
    (trimmable : ∀ update ∈ updates, ∃ old, db.Trimmable update old)
    (versioned : next.Versioned)
    (h : db.trimAndConfirmMany now closedAt updates confirmedAt = some (count, next)) :
    SplitsEach db updates closedAt confirmedAt next := by
  simp only [trimAndConfirmMany, Option.bind_eq_bind, Option.pure_def] at h
  obtain ⟨mid, folded, done⟩ := Option.bind_eq_some_iff.mp h
  have sorted : (ClusterVersionUpdate.sortedById updates).Perm updates :=
    List.perm_insertionSort _ _
  have ids := sorted.map ClusterVersionUpdate.clusterId
  -- First every cluster is trimmed, then all of them are confirmed at once.
  have trims := trimsEach_of_foldlM (ids.nodup_iff.mpr nodup)
    (fun update member => trimmable update (sorted.mem_iff.mp member)) folded
  obtain rfl : _ = next := congrArg Prod.snd (Option.some.inj done)
  have allocatedMid : ∀ {id}, mid.clusterSeq ≤ id → mid.clusters id = none := by
    intro id above
    have unstored := allocated (trims.clusterSeq ▸ above)
    have absent : id ∉ (ClusterVersionUpdate.sortedById updates).map
        ClusterVersionUpdate.clusterId := by
      intro member
      obtain ⟨update, inUpdates, rfl⟩ := List.mem_map.mp member
      obtain ⟨old, before⟩ := trimmable update (sorted.mem_iff.mp inUpdates)
      simp [before.stored] at unstored
    exact (trims.others id absent).1.trans unstored
  have ends := ends_confirmManyIn closedAt ((ClusterVersionUpdate.sortedById updates).map
    ClusterVersionUpdate.clusterId) confirmedAt mid
  have among (id : ClusterId) := mem_activeAmong allocatedMid
    ((ClusterVersionUpdate.sortedById updates).map ClusterVersionUpdate.clusterId) id
  constructor
  · intro update member old stored
    have inSorted := sorted.mem_iff.mpr member
    obtain ⟨clusters, chunks⟩ := trims.trimmed update inSorted old stored
    obtain ⟨row, before⟩ := trimmable update member
    obtain rfl : row = old := Option.some.inj (before.stored.symm.trans stored)
    -- The trimmed cluster is still active, so the confirmation ends it.
    have ended := (among update.clusterId).mpr
      ⟨List.mem_map_of_mem inSorted, _, clusters, before.active⟩
    have rows := ends.clusters update.clusterId
    rw [if_pos ended, clusters, Option.map_some] at rows
    have read := versioned.loadChunks_eq update.clusterId (row.version + 1)
    rw [ends.chunksOf, if_pos ended, chunks, List.map_map] at read
    rw [loaded, rows, Option.map_some]
    have kept : (chunkRows update.clusterId (row.version + 1) update.chunks false).map
        (ClusterChunkRow.chunk ∘ ClusterChunkRow.retire) = update.chunks :=
      map_chunk_chunkRows ..
    rw [kept] at read
    exact congrArg some (congrArg _ read)
  · intro id absent
    have absentSorted := mt ids.mem_iff.mp absent
    obtain ⟨clusters, chunks⟩ := trims.others id absentSorted
    obtain ⟨rows, kept⟩ := others_confirmManyIn mid closedAt confirmedAt absentSorted
    exact ⟨rows.trans clusters, kept.trans chunks⟩

/-- Confirming clusters as they are. -/
theorem loaded_confirmManyIn (inv : StoreInv [] db) {ids : List ClusterId}
    (closedAt confirmedAt : OffsetDateTime) {id : ClusterId} {row : ClusterRow} (member : id ∈ ids)
    (stored : db.clusters id = some row) (active : row.status = .active) :
    (db.confirmManyIn closedAt ids confirmedAt).2.loaded id = some (.fromRow id
      { row with
        confirmedAt := some confirmedAt, status := .confirmed, closedAt := some closedAt }
      (db.loadChunks id row.version)) := by
  have ends := ends_confirmManyIn closedAt ids confirmedAt db
  have ended := (mem_activeAmong inv.allocated ids id).mpr ⟨member, row, stored, active⟩
  have versioned := inv.toVersioned.confirmManyIn closedAt ids confirmedAt
  have rows := ends.clusters id
  rw [if_pos ended, stored, Option.map_some] at rows
  have read := versioned.loadChunks_eq id row.version
  rw [ends.chunksOf, if_pos ended, List.map_map] at read
  have kept : (db.chunksOf id row.version).map (ClusterChunkRow.chunk ∘ ClusterChunkRow.retire) =
      db.loadChunks id row.version := (inv.toVersioned.loadChunks_eq id row.version).symm
  rw [kept] at read
  rw [loaded, rows, Option.map_some]
  exact congrArg some (congrArg _ read)

end Db

namespace ClusterService

variable {env : ClusterEnv} {s mid next : ClusterService} {changes : ClusterDeltaSet} {fuel : ℕ}
  {block : MinedBlock}

/-- The active clusters that the block mined something of, in id order. -/
def minedClusters (block : MinedBlock) (s : ClusterService) : List Cluster :=
  s.db.findByIds (s.db.findActiveIdsByTxids block.txids)

theorem mem_minedClusters (inv : Db.StoreInv [] s.db) {cluster : Cluster} :
    cluster ∈ s.minedClusters block ↔ s.db.loaded cluster.id = some cluster ∧
      cluster.status = .active ∧ ∃ txid ∈ cluster.txids, txid ∈ block.txids := by
  rw [minedClusters, inv.toVersioned.mem_findByIds]
  constructor
  · rintro ⟨id, row, stored, found, rfl⟩
    obtain ⟨⟨other, present, active⟩, txid, mined, member⟩ := inv.mem_findActiveIdsByTxids.mp found
    obtain rfl : other = row := Option.some.inj (present.symm.trans stored)
    refine ⟨?_, active, txid, (Db.mem_txids_loaded stored).mpr member, mined⟩
    rw [Db.loaded, show (Cluster.fromRow id other _).id = id from rfl, stored]
    rfl
  · rintro ⟨found, active, txid, member, mined⟩
    obtain ⟨row, stored, same⟩ := Option.map_eq_some_iff.mp found
    refine ⟨cluster.id, row, stored, ?_, same.symm⟩
    rw [← same] at active member
    exact inv.mem_findActiveIdsByTxids.mpr ⟨⟨row, stored, active⟩, txid, mined,
      (Db.mem_txids_loaded stored).mp member⟩

/-- The whole clusters end confirmed with the chunks they have. -/
theorem minedSplit_confirmFull (reliable : env.Reliable) (inv : Db.StoreInv [] s.db)
    {full : List Cluster} (loaded : ∀ cluster ∈ full, s.db.loaded cluster.id = some cluster ∧
      cluster.status = .active ∧ isFull block cluster = true) :
    (∀ before ∈ full, ∃ after,
        (s.confirmFull env block.confirmedAt full).2.db.loaded before.id = some after ∧
          MinedSplit block before after) ∧
      ∀ id, id ∉ full.map Cluster.id →
        (s.confirmFull env block.confirmedAt full).2.db.clusters id = s.db.clusters id ∧
          (s.confirmFull env block.confirmedAt full).2.db.chunksOf id = s.db.chunksOf id := by
  unfold confirmFull
  dsimp only
  -- Nobody is full, and nothing happens.
  split_ifs with none
  · have nobody : full = [] := List.map_eq_nil_iff.mp none
    subst nobody
    exact ⟨by simp, fun _ _ => ⟨rfl, rfl⟩⟩
  · rw [transact_of_reliable reliable rfl]
    constructor
    · intro before member
      obtain ⟨found, active, whole⟩ := loaded before member
      obtain ⟨row, stored, same⟩ := Option.map_eq_some_iff.mp found
      have isActive : row.status = .active := by
        rw [← same] at active
        exact active
      refine ⟨_, Db.loaded_confirmManyIn inv _ _ (List.mem_map_of_mem member) stored isActive, ?_⟩
      -- A cluster mined as a whole keeps all its chunks.
      apply MinedSplit.of_chunks rfl rfl
      · rw [filterMap_minedPart_of_isFull whole, ← same]
        rfl
      · exact (inv.toVersioned.totals_loadChunks stored).symm
    · intro id absent
      exact Db.others_confirmManyIn _ _ _ absent

/-- The members of some clusters that the block did not mine. -/
def stillPending (block : MinedBlock) (clusters : List Cluster) : List Txid :=
  (clusters.flatMap Cluster.txids).filter (· ∉ block.txids)

theorem pending_eq_stillPending (block : MinedBlock) (partly : List Cluster) :
    (partly.map fun cluster => MinedTrim.new cluster block).flatMap MinedTrim.pending =
      stillPending block partly := by
  rw [stillPending, List.filter_flatMap, List.flatMap_map]
  apply List.flatMap_congr
  intro cluster _
  rw [Cluster.txids, List.filter_flatMap]
  rfl

/-- A cluster that is mined whole has nobody left. -/
theorem stillPending_filter_isFull (block : MinedBlock) (clusters : List Cluster) :
    stillPending block (clusters.filter (!isFull block ·)) = stillPending block clusters := by
  induction clusters with
  | nil => rfl
  | cons cluster clusters ih =>
    by_cases full : isFull block cluster = true
    · have nobody : cluster.txids.filter (· ∉ block.txids) = [] := by
        apply List.filter_eq_nil_iff.mpr
        intro txid member
        simpa using List.all_eq_true.mp full txid member
      have split : stillPending block (cluster :: clusters) = stillPending block clusters := by
        rw [stillPending, List.flatMap_cons, List.filter_append, nobody]
        rfl
      rw [split, List.filter_cons_of_neg (by simp [full]), ih]
    · rw [List.filter_cons_of_pos (by simp [full])]
      simp only [stillPending, List.flatMap_cons, List.filter_append] at ih ⊢
      rw [ih]

/-- A loaded cluster as the lookup leaves it. -/
theorem loaded_of_found (inv : Db.StoreInv [] s.db) {cluster : Cluster}
    (found : s.db.loaded cluster.id = some cluster)
    (mined : ∃ txid ∈ cluster.txids, txid ∈ block.txids) : Loaded block s.db cluster := by
  obtain ⟨row, stored, same⟩ := Option.map_eq_some_iff.mp found
  have members := inv.toVersioned.txids_loadChunks stored
  refine ⟨?_, ?_, mined⟩
  · rw [← same]
    change (s.db.loadChunks cluster.id row.version).length ≤ maxChunks
    rw [inv.toVersioned.loadChunks_eq, List.length_map]
    exact (inv.stored stored).small _
  · rw [← same]
    exact members

/-- The clusters mined in part end confirmed with what the block mined of them, and the
rest of their members are asked about. -/
theorem minedSplit_confirmPartial (reliable : env.Reliable) (inv : Db.StoreInv [] s.db)
    {partly : List Cluster} (nodup : (partly.map Cluster.id).Nodup)
    (loaded : ∀ cluster ∈ partly, s.db.loaded cluster.id = some cluster ∧
      cluster.status = .active ∧ (∃ txid ∈ cluster.txids, txid ∈ block.txids) ∧
      isFull block cluster = false)
    (h : s.confirmPartial env fuel block partly = some (changes, next)) :
    ∃ mid : ClusterService, Commits s.db mid.db ∧ Db.StoreInv [] mid.db ∧
      (∀ before ∈ partly, ∃ after, mid.db.loaded before.id = some after ∧
        MinedSplit block before after) ∧
      (∀ id, id ∉ partly.map Cluster.id →
        mid.db.clusters id = s.db.clusters id ∧ mid.db.chunksOf id = s.db.chunksOf id) ∧
      (partly = [] ∧ next = mid ∨ ∃ synced,
        mid.handleCandidates env fuel (stillPending block partly) = some (synced, next)) := by
  have found : ∀ cluster ∈ partly, Loaded block s.db cluster := by
    intro cluster member
    obtain ⟨stored, -, mined, -⟩ := loaded cluster member
    exact loaded_of_found inv stored mined
  -- With nothing to split the state stays; otherwise the trim commits and the rest is synced.
  rcases confirmPartial_of_holds inv found h (holds_of_reliable reliable _ _) with
    ⟨rfl, rfl⟩ | ⟨mid, synced, silent, midInv, -, handled, count, committed⟩
  · exact ⟨next, .refl _, inv, by simp, fun _ _ => ⟨rfl, rfl⟩, .inl ⟨rfl, rfl⟩⟩
  rw [pending_eq_stillPending] at handled
  have ids : ((partly.map fun cluster => MinedTrim.new cluster block).map
      MinedTrim.asUpdate).map ClusterVersionUpdate.clusterId = partly.map Cluster.id := by
    rw [List.map_map, List.map_map]
    rfl
  have trimmable : ∀ cluster ∈ partly, ∃ old,
      s.db.Trimmable (MinedTrim.new cluster block).asUpdate old := by
    intro cluster member
    obtain ⟨present, active, -, cut⟩ := loaded cluster member
    obtain ⟨row, stored, same⟩ := Option.map_eq_some_iff.mp present
    rw [← same] at active
    have chunks := congrArg Cluster.chunks same
    -- Something in the cluster is unmined, so the update is not what is stored.
    refine ⟨row, stored, active, ?_, (inv.stored stored).next_eq_nil⟩
    intro unchanged
    exact filterMap_minedPart_ne cut (unchanged.symm.trans chunks)
  have splits := Db.splitsEach_trimAndConfirmMany inv.allocated (ids ▸ nodup) (by
    intro update member
    obtain ⟨trim, inTrims, rfl⟩ := List.mem_map.mp member
    obtain ⟨cluster, inPartly, rfl⟩ := List.mem_map.mp inTrims
    exact trimmable cluster inPartly) midInv.toVersioned committed
  refine ⟨mid, silent.commits, midInv, ?_, ?_, .inr ⟨synced, handled⟩⟩
  · intro before member
    obtain ⟨old, trim⟩ := trimmable before member
    have split := splits.split _ (List.mem_map_of_mem (List.mem_map_of_mem member)) old trim.stored
    exact ⟨_, split, .of_chunks rfl rfl rfl rfl⟩
  · intro id absent
    exact splits.others id (ids ▸ absent)

/-- What confirming a block leaves of the clusters `hit`, with the state its re-sync starts from. -/
structure BlockSplit (env : ClusterEnv) (fuel : ℕ) (block : MinedBlock) (hit : List Cluster)
    (s mid next : ClusterService) : Prop where
  /-- They are the clusters that the block mined something of, each once. -/
  mem_hit : ∀ before, before ∈ hit ↔ s.db.loaded before.id = some before ∧
    before.status = .active ∧ ∃ txid ∈ before.txids, txid ∈ block.txids
  nodup : (hit.map Cluster.id).Nodup
  /-- They end split, and what stays with them and what is asked about are their members. -/
  split : ∃ afters, List.Forall₂ (fun before after =>
      next.db.loaded before.id = some after ∧ MinedSplit block before after) hit afters ∧
    (afters.flatMap Cluster.txids ++ stillPending block hit).Perm (hit.flatMap Cluster.txids)
  others : ∀ id, id ∉ hit.map Cluster.id →
    mid.db.clusters id = s.db.clusters id ∧ mid.db.chunksOf id = s.db.chunksOf id
  resync : stillPending block hit = [] ∧ next = mid ∨ ∃ synced,
    mid.handleCandidates env fuel (stillPending block hit) = some (synced, next)

theorem exists_forall₂ {α β : Type} {R : α → β → Prop} {list : List α}
    (each : ∀ a ∈ list, ∃ b, R a b) : ∃ others, List.Forall₂ R list others := by
  induction list with
  | nil => exact ⟨[], .nil⟩
  | cons a list ih =>
    obtain ⟨b, related⟩ := each a List.mem_cons_self
    obtain ⟨others, rest⟩ := ih fun other member => each other (List.mem_cons_of_mem a member)
    exact ⟨b :: others, .cons related rest⟩

theorem flatMap_txids_of_split {hit afters : List Cluster} {db : Db}
    (splits : List.Forall₂ (fun before after => db.loaded before.id = some after ∧
      MinedSplit block before after) hit afters) :
    afters.flatMap Cluster.txids = (hit.flatMap Cluster.txids).filter (· ∈ block.txids) := by
  induction splits with
  | nil => rfl
  | cons head _ ih =>
    rw [List.flatMap_cons, List.flatMap_cons, List.filter_append, ih, head.2.txids]

/-- A list of txids is what the block mined of it and what it did not. -/
theorem perm_split {hit afters : List Cluster} {db : Db}
    (splits : List.Forall₂ (fun before after => db.loaded before.id = some after ∧
      MinedSplit block before after) hit afters) :
    (afters.flatMap Cluster.txids ++ stillPending block hit).Perm (hit.flatMap Cluster.txids) := by
  have whole := List.filter_append_perm (fun txid => decide (txid ∈ block.txids))
    (hit.flatMap Cluster.txids)
  rw [flatMap_txids_of_split splits, stillPending]
  simpa only [decide_not] using whole

/-- What is split stays as it is while the clusters it closed do. -/
theorem MinedSplit.carry {db after : Db} {before : Cluster} (keeps : Db.KeepsClosed db after)
    (split : ∃ cluster, db.loaded before.id = some cluster ∧ MinedSplit block before cluster) :
    ∃ cluster, after.loaded before.id = some cluster ∧ MinedSplit block before cluster := by
  obtain ⟨cluster, found, split⟩ := split
  have closed : cluster.status ≠ .active := by
    rw [split.status]
    exact ClusterStatus.noConfusion
  exact ⟨cluster, keeps.loaded_eq found closed, split⟩

/-- The two halves of confirming a block, on the clusters `hit` that it looked up. -/
theorem blockSplit_of_halves {lookedUp confirmed : ClusterService} {hit : List Cluster}
    (reliable : env.Reliable) (inv : Db.StoreInv [] s.db)
    (confirmedInv : Db.StoreInv [] confirmed.db)
    (db_eq : lookedUp.db = s.db)
    (mem_hit : ∀ before, before ∈ hit ↔ s.db.loaded before.id = some before ∧
      before.status = .active ∧ ∃ txid ∈ before.txids, txid ∈ block.txids)
    (nodup : (hit.map Cluster.id).Nodup)
    (whole : (lookedUp.confirmFull env block.confirmedAt (hit.filter (isFull block))).2 = confirmed)
    (partly : confirmed.confirmPartial env fuel block (hit.filter (!isFull block ·)) =
      some (changes, next)) :
    ∃ mid, BlockSplit env fuel block hit s mid next ∧ Db.StoreInv [] mid.db := by
  have sameId {one other : Cluster} (inHit : one ∈ hit) (inOther : other ∈ hit)
      (same : one.id = other.id) : one = other := by
    have first := ((mem_hit one).mp inHit).1
    rw [same, ((mem_hit other).mp inOther).1] at first
    exact (Option.some.inj first).symm
  have wholly : ∀ cluster ∈ hit.filter (isFull block),
      lookedUp.db.loaded cluster.id = some cluster ∧
      cluster.status = .active ∧ isFull block cluster = true := by
    intro cluster member
    obtain ⟨inHit, full⟩ := List.mem_filter.mp member
    obtain ⟨stored, active, -⟩ := (mem_hit cluster).mp inHit
    exact ⟨db_eq ▸ stored, active, full⟩
  obtain ⟨wholeSplit, wholeOthers⟩ := minedSplit_confirmFull reliable (db_eq ▸ inv) wholly
  rw [whole] at wholeSplit wholeOthers
  rw [db_eq] at wholeOthers
  -- who is mined in part is not touched by the first half
  have untouched : ∀ before ∈ hit.filter (!isFull block ·), confirmed.db.loaded before.id =
      some before ∧ before.status = .active ∧ (∃ txid ∈ before.txids, txid ∈ block.txids) ∧
        isFull block before = false := by
    intro before member
    obtain ⟨inHit, cut⟩ := List.mem_filter.mp member
    obtain ⟨stored, active, mined⟩ := (mem_hit before).mp inHit
    have apart : before.id ∉ (hit.filter (isFull block)).map Cluster.id := by
      intro listed
      obtain ⟨other, inFull, same⟩ := List.mem_map.mp listed
      obtain ⟨inOther, full⟩ := List.mem_filter.mp inFull
      rw [sameId inOther inHit same] at full
      simp [full] at cut
    obtain ⟨clusters, chunks⟩ := wholeOthers before.id apart
    refine ⟨?_, active, mined, by simpa using cut⟩
    rw [Db.loaded_congr clusters chunks, stored]
  have cutNodup : ((hit.filter (!isFull block ·)).map Cluster.id).Nodup :=
    List.Nodup.sublist (List.Sublist.map _ List.filter_sublist) nodup
  obtain ⟨mid, commits, midInv, cutSplit, cutOthers, resynced⟩ :=
    minedSplit_confirmPartial reliable confirmedInv cutNodup untouched partly
  have later : Db.KeepsClosed mid.db next.db := by
    rcases resynced with ⟨-, rfl⟩ | ⟨synced, handled⟩
    · exact (Db.Spares.refl _).closed
    · exact (moves_handleCandidatesCovering handled).commits.spares.closed
  obtain ⟨afters, splits⟩ : ∃ afters, List.Forall₂ (fun before after =>
      next.db.loaded before.id = some after ∧ MinedSplit block before after) hit afters := by
    apply exists_forall₂
    intro before inHit
    apply MinedSplit.carry later
    by_cases full : isFull block before = true
    · exact MinedSplit.carry commits.spares.closed
        (wholeSplit before (List.mem_filter.mpr ⟨inHit, full⟩))
    · exact cutSplit before (List.mem_filter.mpr ⟨inHit, by simpa using full⟩)
  rw [stillPending_filter_isFull] at resynced
  refine ⟨mid, ⟨mem_hit, nodup, ⟨afters, splits, perm_split splits⟩, ?_, ?_⟩, midInv⟩
  · intro id absent
    have apart (p : Cluster → Bool) : id ∉ (hit.filter p).map Cluster.id := by
      intro listed
      obtain ⟨other, inPart, same⟩ := List.mem_map.mp listed
      exact absent (List.mem_map.mpr ⟨other, (List.mem_filter.mp inPart).1, same⟩)
    obtain ⟨clusters, chunks⟩ := wholeOthers id (apart _)
    obtain ⟨cutClusters, cutChunks⟩ := cutOthers id (apart _)
    exact ⟨cutClusters.trans clusters, cutChunks.trans chunks⟩
  · rcases resynced with ⟨nobody, same⟩ | handled
    · refine .inl ⟨?_, same⟩
      rw [← stillPending_filter_isFull, nobody]
      rfl
    · exact .inr handled

theorem confirmMinedInner_splits (reliable : env.Reliable) (inv : Db.StoreInv [] s.db)
    (h : s.confirmMinedInner env fuel block = some (changes, next)) :
    ∃ mid, BlockSplit env fuel block (s.minedClusters block) s mid next ∧
      Db.StoreInv [] mid.db := by
  obtain ⟨⟨trimmed, last⟩, partly, done⟩ := Option.map_eq_some_iff.mp h
  obtain rfl : last = next := congrArg Prod.snd done
  obtain ⟨db_eq, -, -⟩ := loaded_findActiveClustersContaining env inv block
  have confirmedInv := (keeps_confirmFull_loaded env inv block).1.inv
  have found : (s.findActiveClustersContaining env block.txids).1 = s.minedClusters block :=
    findActiveClustersContaining_of_reliable reliable inv block.txids
  rw [← found]
  exact blockSplit_of_halves reliable inv confirmedInv db_eq
    (by rw [found]; exact fun _ => mem_minedClusters inv)
    (by rw [found]; exact Db.nodup_loadClusters _ s.db) rfl partly

end ClusterService

/-- With no database error, confirming a block splits every active cluster that the block
mined something of, and only the re-sync touches the others; it ends, if the node answers
about the txids it is asked for. -/
theorem mined_clusters_split {env : ClusterEnv} (reliable : env.Reliable) {s : ClusterService}
    (inv : Db.StoreInv [] s.db) (block : MinedBlock) :
    (env.AnswersAsked →
        ∃ result, Settles (fun fuel => s.confirmMinedInner env fuel block) result) ∧
      ∀ fuel changes next, s.confirmMinedInner env fuel block = some (changes, next) →
        ∃ hit mid, ClusterService.BlockSplit env fuel block hit s mid next := by
  constructor
  · intro answers
    exact ClusterService.settles_confirmMinedInner answers inv block
  · intro fuel changes next h
    obtain ⟨mid, split, -⟩ := ClusterService.confirmMinedInner_splits reliable inv h
    exact ⟨_, mid, split⟩

/-- The pair is stored, and a block mines `a` of it. -/
theorem minedPair_split : ∃ synced next fuel hit mid,
    (ClusterRound.syncClustersFor ["a"] []).run pairEnv 3 .initial = some synced ∧
      ClusterService.BlockSplit pairEnv fuel ⟨["a"], fun _ => some 10, fun _ => some 100, 5⟩
        hit synced mid next := by
  obtain ⟨synced, syncs⟩ := Option.isSome_iff_exists.mp (show
    ((ClusterRound.syncClustersFor ["a"] []).run pairEnv 3 .initial).isSome = true by decide)
  have inv := (ClusterStep.run_keeps (.single (.round _ _ _ smallAnswers_pairEnv syncs))
    Db.storeInv_empty).1
  have reliable : pairEnv.Reliable := fun _ _ => rfl
  obtain ⟨ends, splits⟩ := mined_clusters_split reliable inv
    ⟨["a"], fun _ => some 10, fun _ => some 100, 5⟩
  obtain ⟨⟨changes, next⟩, enough, returns⟩ := ends answersAsked_pairEnv
  obtain ⟨hit, mid, split⟩ := splits enough changes next (returns enough le_rfl)
  exact ⟨synced, next, enough, hit, mid, syncs, split⟩

/-- A node whose group has a chunk of nobody. -/
def emptyChunkEnv : ClusterEnv where
  getMempoolCluster _ _ := .cluster ⟨[⟨["a"], 10, 200⟩, ⟨[], 0, 0⟩]⟩
  fails _ _ := false
  now call := call
  call _ := ⟨fun _ => 0, .sorted Txid⟩

/-- A chunk that is stored with nobody in it counts as mined whole and stays. -/
theorem emptyChunk_confirmed : ∃ synced changes next,
    (ClusterRound.syncClustersFor ["a"] []).run emptyChunkEnv 3 .initial = some synced ∧
      (synced.db.loaded 1).map Cluster.status = some .active ∧
      synced.confirmMinedInner emptyChunkEnv 3 ⟨["a"], fun _ => some 10, fun _ => some 100, 5⟩ =
        some (changes, next) ∧
      (next.db.loaded 1).map (fun after => (after.status, after.chunks)) =
        some (.confirmed, [⟨["a"], 10, 200⟩, ⟨[], 0, 0⟩]) := by
  obtain ⟨synced, syncs⟩ := Option.isSome_iff_exists.mp (show
    ((ClusterRound.syncClustersFor ["a"] []).run emptyChunkEnv 3 .initial).isSome = true by decide)
  have confirms : ((ClusterRound.syncClustersFor ["a"] []).run emptyChunkEnv 3 .initial).map
      (fun synced => ((synced.db.loaded 1).map Cluster.status,
        (synced.confirmMinedInner emptyChunkEnv 3
          ⟨["a"], fun _ => some 10, fun _ => some 100, 5⟩).map fun result =>
            (result.2.db.loaded 1).map fun after => (after.status, after.chunks))) =
      some (some .active, some (some (.confirmed, [⟨["a"], 10, 200⟩, ⟨[], 0, 0⟩]))) := by
    decide
  rw [syncs, Option.map_some, Option.some.injEq, Prod.mk.injEq] at confirms
  obtain ⟨active, confirms⟩ := confirms
  obtain ⟨⟨changes, next⟩, confirmed, after⟩ := Option.map_eq_some_iff.mp confirms
  exact ⟨synced, changes, next, syncs, active, confirmed, after⟩

end MempoolObserver
